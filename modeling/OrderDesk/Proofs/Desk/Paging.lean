import OrderDesk.Desk.Access
import OrderDesk.Order.Sample
import OrderDesk.Proofs.Desk.Numbering

/-!
Paging through the items of an order that is cached, or stored. The cache and the store cut pages in
different ways, and show the same ones.
-/

namespace OrderDesk.Desk

/-- A reader asks for one page after the other, each with a limit of its own: first from the start,
and then from the last item received. -/
structure Reader where
  ask : Int64 → Int64 → Step (Except OrderError (List Item))
  limit : Nat → Int64
  start : Desk

namespace Reader

def after (r : Reader) : Nat → Desk × Int64
  | 0 => (r.start, 0)
  | n + 1 =>
    let p := r.after n
    let a := (r.ask p.2 (r.limit n)).run p.1
    (a.2, Page.cursorAfter p.2 (a.1.toOption.getD []))

def answer (r : Reader) (n : Nat) : Except OrderError (List Item) :=
  ((r.ask (r.after n).2 (r.limit n)).run (r.after n).1).1

/-- A reader receives items on pages within the limits, and then an empty page. -/
structure Receives (r : Reader) (xs : List Item) (pages : List (List Item)) : Prop where
  all : pages.flatten = xs
  answers : ∀ n page, pages[n]? = some page →
    r.answer n = .ok page ∧ page ≠ [] ∧ page.length ≤ (r.limit n).toInt
  ends : r.answer pages.length = .ok []

variable {r : Reader} {xs : List Item}

theorem exists_receives (hasc : Page.Ascending xs) (hpos : ∀ x ∈ xs, 0 < x.id)
    (hlimit : ∀ n, 0 < r.limit n) (holds : Desk → Prop) (hstart : holds r.start)
    (hask : ∀ d last limit, holds d →
      ((r.ask last limit).run d).1 = .ok (Page.select xs last limit) ∧
        holds ((r.ask last limit).run d).2) :
    ∃ pages, r.Receives xs pages := by
  have hholds : ∀ n, holds (r.after n).1 := by
    intro n
    induction n with
    | zero => exact hstart
    | succ n ih => exact (hask _ _ _ ih).2
  let page (n : Nat) : List Item := Page.select xs (r.after n).2 (r.limit n)
  have hanswer : ∀ n, r.answer n = .ok (page n) := fun n => (hask _ _ _ (hholds n)).1
  have hcursor : ∀ n, (r.after (n + 1)).2 = Page.cursorAfter (r.after n).2 (page n) := by
    intro n
    have hgot : r.answer n = .ok (page n) := hanswer n
    simp only [after]
    rw [answer] at hgot
    rw [hgot]
    rfl
  -- each page is the beginning of what lies beyond the cursor, and moves the cursor past it
  have hstep : ∀ n, Page.beyond (r.after n).2 xs =
      page n ++ Page.beyond (r.after (n + 1)).2 xs := by
    intro n
    have hsplit : Page.beyond (r.after n).2 xs =
        page n ++ (Page.beyond (r.after n).2 xs).drop (Page.allowed (r.limit n)) :=
      (List.take_append_drop ..).symm
    rw [hcursor, Page.beyond_cursorAfter hasc hsplit]
    exact hsplit
  have hend : ∀ n, page n = [] → Page.beyond (r.after n).2 xs = [] := fun n hn =>
    Page.beyond_eq_nil_iff.2 ((Page.select_eq_nil_iff (hlimit n)).1 hn)
  obtain ⟨pages, hall, hpages, hlast⟩ := Page.exists_pages_beyond hstep hend
  refine ⟨pages, ?all, ?answers, ?ends⟩
  case all =>
    rw [hall]
    exact Page.beyond_eq_self hpos
  case answers =>
    intro n p hp
    obtain ⟨rfl, hnonempty⟩ := hpages n p hp
    refine ⟨hanswer n, hnonempty, ?_⟩
    have hwithin : (page n).length ≤ Page.allowed (r.limit n) := Page.length_select_le ..
    have hpositive := Page.allowed_pos (hlimit n)
    simp only [Page.allowed] at hwithin hpositive
    omega
  case ends => rw [hanswer, hlast]

end Reader

variable {d : Desk} {o : Order}

theorem run_cachedItems (hasc : Page.Ascending o.items)
    (hc : d.cache.shelf.find? o.uid = some o) (last limit : Int64) :
    (Step.cachedItems o.uid last limit).run d = (.ok (Page.select o.items last limit), d) := by
  have hitems : d.cache.items o.uid last limit = .ok (Page.slice o.items last limit) :=
    Cache.items_eq_ok_iff.2 ⟨o, hc, rfl⟩
  rw [Step.run, hitems, Page.slice_eq_select hasc]

theorem run_storedItems (hs : d.store.shelf.find? o.uid = some o)
    (hr : d.store.readFailure = none) (last limit : Int64) :
    ((Step.storedItems o.uid last limit).run d).1 = .ok (Page.select o.items last limit) := by
  have hpage : d.store.page o.uid last limit = Page.select o.items last limit := by
    rw [Store.page, hs]
  exact Store.items_eq_ok_iff.2 ⟨hr, hpage⟩

structure Paged (o : Order) : Prop where
  cut : ∀ last limit, Page.slice o.items last limit = Page.select o.items last limit
  agree : ∀ d : Desk, d.cache.shelf.find? o.uid = some o → d.store.shelf.find? o.uid = some o →
    d.store.readFailure = none → ∀ last limit,
    ((Step.cachedItems o.uid last limit).run d).1 = ((Step.storedItems o.uid last limit).run d).1
  cached : (∀ x ∈ o.items, 0 < x.id) → ∀ (d : Desk) (limit : Nat → Int64), (∀ n, 0 < limit n) →
    d.cache.shelf.find? o.uid = some o →
    ∃ pages, Reader.Receives ⟨.cachedItems o.uid, limit, d⟩ o.items pages
  stored : (∀ x ∈ o.items, 0 < x.id) → ∀ (d : Desk) (limit : Nat → Int64), (∀ n, 0 < limit n) →
    d.store.shelf.find? o.uid = some o → d.store.readFailure = none →
    ∃ pages, Reader.Receives ⟨.storedItems o.uid, limit, d⟩ o.items pages

theorem paged (hasc : Page.Ascending o.items) : Paged o where
  cut := Page.slice_eq_select hasc
  agree d hc hs hr last limit := by
    rw [run_cachedItems hasc hc, run_storedItems hs hr]
  cached hpos d limit hlimit hc := by
    let r : Reader := ⟨.cachedItems o.uid, limit, d⟩
    refine Reader.exists_receives (r := r) hasc hpos hlimit
      (fun e => e.cache.shelf.find? o.uid = some o) hc fun e last most he => ?_
    change ((Step.cachedItems o.uid last most).run e).1 = _ ∧ _
    rw [run_cachedItems hasc he]
    exact ⟨rfl, he⟩
  stored hpos d limit hlimit hs hr := by
    let r : Reader := ⟨.storedItems o.uid, limit, d⟩
    refine Reader.exists_receives (r := r) hasc hpos hlimit
      (fun e => e.store.shelf.find? o.uid = some o ∧ e.store.readFailure = none) ⟨hs, hr⟩
      fun e last most he => ?_
    exact ⟨run_storedItems he.1 he.2 last most, he⟩

theorem paged_sample :
    let items := [3, 7, 9, 15].map fun id => { Item.sample 0 with id }
    let o := { Order.sample "abc" 0 with items }
    let d := { Desk.empty with
      cache := Cache.empty.set o
      store := { Store.empty with shelf := Shelf.empty.insert o } }
    Page.Ascending o.items ∧ (∀ x ∈ o.items, 0 < x.id) ∧
      (∃ pages, Reader.Receives ⟨.cachedItems o.uid, fun n => .ofNat (n % 5 + 1), d⟩ items pages) ∧
      (∃ pages, Reader.Receives ⟨.storedItems o.uid, fun _ => 2, d⟩ items pages) ∧
      Page.slice items 5 2 = Page.select items 5 2 := by
  intro items o d
  have hasc : Page.Ascending o.items := by
    unfold Page.Ascending
    decide
  have hpos : ∀ x ∈ o.items, 0 < x.id := by decide
  have hlimit : ∀ n : Nat, (0 : Int64) < .ofNat (n % 5 + 1) := by
    intro n
    have hmod : n % 5 < 5 := Nat.mod_lt n (by decide)
    exact Store.ofNat_lt_ofNat (j := 0) (Nat.succ_pos _) (by omega)
  have hc : d.cache.shelf.find? o.uid = some o := by decide +kernel
  have hs : d.store.shelf.find? o.uid = some o := by decide +kernel
  have hpaged := paged hasc
  exact ⟨hasc, hpos, hpaged.cached hpos d _ hlimit hc,
    hpaged.stored hpos d _ (fun _ => by decide) hs rfl, hpaged.cut 5 2⟩

end OrderDesk.Desk
