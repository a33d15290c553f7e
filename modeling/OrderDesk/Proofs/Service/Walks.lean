import Mathlib.Algebra.BigOperators.Group.List.Basic
import OrderDesk.Order.Sample
import OrderDesk.Proofs.Desk.Walks
import OrderDesk.Proofs.Service.Frames

/-!
Undisturbed walks. A reader who goes through the items of an order page by page sees each of them
once and in order, although what is cached changes with the pages, as long as nobody else reads or
writes that order meanwhile. What others do with other orders does not matter.
-/

namespace OrderDesk

/-! ## Walks -/

def Answer.shown : Answer → List Item
  | .items xs => xs
  | _ => []

/-- A walk through the items of an order: from the start, and then from the last item shown, one page
after the other is asked for, each with a limit of its own. Before each page others may do
something. -/
structure Walk where
  uid : String
  start : Service
  between : Nat → List Command
  limit : Nat → Int64

namespace Walk

def read (w : Walk) (n : Nat) (s : Service) (last : Int64) : Answer × Service :=
  (s.performAll (w.between n)).2.perform (.readItems w.uid last (w.limit n))

def after (w : Walk) : Nat → Service × Int64
  | 0 => (w.start, 0)
  | n + 1 =>
    let p := w.after n
    let r := w.read n p.1 p.2
    (r.2, Page.cursorAfter p.2 r.1.shown)

def answer (w : Walk) (n : Nat) : Answer := (w.read n (w.after n).1 (w.after n).2).1

end Walk

namespace Service

structure Walkable (s : Service) (o : Order) : Prop where
  stored : s.desk.store.shelf.find? o.uid = some o
  cached : ∀ c, s.desk.cache.shelf.find? o.uid = some c → c.items <+: o.items
  readable : s.desk.store.readFailure = none

end Service

namespace Walk

variable {w : Walk} {o : Order} {n : Nat}

def Undisturbed (w : Walk) : Prop :=
  ∀ n, 0 < w.limit n ∧
    (w.after n).1.desk.Untouched w.uid ((w.after n).1.performAll (w.between n)).2.desk

/-- A walk shows all items of an order on pages that are not empty, and then an empty page. -/
structure Shows (w : Walk) (o : Order) (pages : List (List Item)) : Prop where
  all : pages.flatten = o.items
  nonempty : ∀ page ∈ pages, page ≠ []
  answers : ∀ n page, pages[n]? = some page → w.answer n = .items page
  ends : w.answer pages.length = .items []

theorem Shows.length_le {pages : List (List Item)} (h : w.Shows o pages) :
    pages.length ≤ o.items.length := by
  have hone : ∀ k ∈ pages.map List.length, 1 ≤ k := by
    intro k hk
    obtain ⟨page, hpage, rfl⟩ := List.mem_map.1 hk
    exact List.length_pos_of_ne_nil (h.nonempty page hpage)
  have hsum := List.length_le_sum_of_one_le _ hone
  rw [← h.all, List.length_flatten]
  rwa [List.length_map] at hsum

theorem undisturbed_of_not_concerns (hlimit : ∀ n, 0 < w.limit n)
    (h : ∀ n, ∀ c ∈ w.between n, ¬ c.Concerns w.uid) : w.Undisturbed :=
  fun n => ⟨hlimit n, (w.after n).1.untouched_performAll (h n)⟩

/-! ## Steps -/

theorem exists_page (hw : w.Undisturbed) (huid : w.uid = o.uid)
    (hasc : Page.Ascending o.items) (h : (w.after n).1.desk.Midway o (w.after n).2) :
    ∃ page, w.answer n = .items page ∧
      (w.after (n + 1)).2 = Page.cursorAfter (w.after n).2 page ∧
      Desk.Steps o (w.after n).2 page (w.after (n + 1)).1.desk := by
  obtain ⟨hlimit, huntouched⟩ := hw n
  rw [huid] at huntouched
  obtain ⟨page, hpage, hsteps⟩ :=
    (h.of_untouched huntouched).exists_steps hasc hlimit
  have hread : w.read n (w.after n).1 (w.after n).2 =
      (.items page, { ((w.after n).1.performAll (w.between n)).2 with
        pipeline := { ((w.after n).1.performAll (w.between n)).2.pipeline with
          desk := ((Desk.readItems o.uid (w.after n).2 (w.limit n)).run
            ((w.after n).1.performAll (w.between n)).2.desk).2 } }) := by
    simp only [read, huid, Service.perform, Service.access_eq, hpage]
  refine ⟨page, ?_, ?_, ?_⟩
  · rw [answer, hread]
  · simp only [after, hread, Answer.shown]
  · simp only [after, hread]
    exact hsteps

theorem midway_after (hw : w.Undisturbed) (huid : w.uid = o.uid) (hasc : Page.Ascending o.items)
    (h : w.start.desk.Midway o 0) (n : Nat) : (w.after n).1.desk.Midway o (w.after n).2 := by
  induction n with
  | zero => exact h
  | succ n ih =>
    obtain ⟨page, -, hcursor, hsteps⟩ := exists_page hw huid hasc ih
    rw [hcursor]
    exact hsteps.midway

theorem exists_pages (hw : w.Undisturbed) (huid : w.uid = o.uid) (hasc : Page.Ascending o.items)
    (h : w.start.desk.Midway o 0) :
    ∃ pages : List (List Item), pages.flatten = Page.beyond 0 o.items ∧
      (∀ page ∈ pages, page ≠ []) ∧
      (∀ n page, pages[n]? = some page → w.answer n = .items page) ∧
      w.answer pages.length = .items [] ∧ (w.after (pages.length + 1)).1.Walkable o := by
  choose page hanswer hcursor hsteps using
    fun n => exists_page hw huid hasc (midway_after hw huid hasc h n)
  obtain ⟨pages, hall, hpages, hlast⟩ := Page.exists_pages_beyond
    (fun n => by rw [hcursor n]; exact (hsteps n).rest) fun n hn => ((hsteps n).done hn).1
  have hempty := ((hsteps pages.length).done hlast).2
  have hwalkable : (w.after (pages.length + 1)).1.Walkable o :=
    ⟨(hsteps _).midway.stored, fun c hc => by rw [hempty c hc]; exact List.nil_prefix,
      (hsteps _).midway.readable⟩
  refine ⟨pages, hall, fun p hp => ?_, fun n p hp => ?_, ?_, hwalkable⟩
  · obtain ⟨n, hn⟩ := List.getElem?_of_mem hp
    exact (hpages n p hn).2
  · rw [hanswer n, (hpages n p hp).1]
  · rw [hanswer, hlast]

end Walk

namespace Service

variable {s : Service} {o : Order}

theorem Walkable.exists_shows (h : s.Walkable o) (hasc : Page.Ascending o.items)
    (hpos : ∀ x ∈ o.items, 0 < x.id) {w : Walk} (hstart : w.start = s) (huid : w.uid = o.uid)
    (hw : w.Undisturbed) :
    ∃ pages, w.Shows o pages ∧ (w.after (pages.length + 1)).1.Walkable o := by
  have hall : Page.beyond 0 o.items = o.items := Page.beyond_eq_self hpos
  have hmidway : w.start.desk.Midway o 0 := by
    rw [hstart]
    refine ⟨h.stored, h.readable, fun c hc => ?_⟩
    have hcached := h.cached c hc
    have hcpos : ∀ x ∈ c.items, 0 < x.id := fun x hx => hpos x (hcached.subset hx)
    rw [hall, Page.beyond_eq_self hcpos]
    exact ⟨hasc.of_block hcached.isInfix, hcached⟩
  obtain ⟨pages, hflatten, hnonempty, hanswers, hend, hwalkable⟩ :=
    Walk.exists_pages hw huid hasc hmidway
  exact ⟨pages, ⟨hflatten.trans hall, hnonempty, hanswers, hend⟩, hwalkable⟩

/-- Whatever was done before, an undisturbed walk shows all items of an order on at most one page for
each, and so does the next walk. -/
theorem undisturbed_walk_complete (settings : IngestSettings) (running exposed : Bool)
    (cs : List Command) {s : Service}
    (hs : ((start settings running exposed).performAll cs).2 = s)
    (hn : s.desk.store.given < 2 ^ 63) (o : Order) (ho : s.Walkable o) (w : Walk)
    (hstart : w.start = s) (huid : w.uid = o.uid) (hw : w.Undisturbed) :
    ∃ pages, w.Shows o pages ∧ pages.length ≤ o.items.length ∧
      (w.after (pages.length + 1)).1.Walkable o ∧
      ∀ v : Walk, v.start = (w.after (pages.length + 1)).1 → v.uid = o.uid → v.Undisturbed →
        ∃ more, v.Shows o more ∧ more.length ≤ o.items.length := by
  have hnumbers : s.desk.Numbers := hs ▸ numbers_performAll (numbers_start settings running exposed) cs
  have hnumbered := hnumbers o.uid o ho.stored
  have hasc := hnumbered.ascending hn
  have hpos := hnumbered.pos hn
  obtain ⟨pages, hshows, hleft⟩ := ho.exists_shows hasc hpos hstart huid hw
  refine ⟨pages, hshows, hshows.length_le, hleft, fun v hvstart hvuid hv => ?_⟩
  obtain ⟨more, hmore, -⟩ := hleft.exists_shows hasc hpos hvstart hvuid hv
  exact ⟨more, hmore, hmore.length_le⟩

theorem undisturbed_walk_sample :
    let o := Store.stored 0 (.sample "b563feb7b2b84b6test" 3)
    let s := ((start .standard false false).performAll
      [.persist (.sample "b563feb7b2b84b6test" 3), .clearCache]).2
    let w : Walk :=
      { uid := o.uid
        start := s
        between := fun n =>
          if n = 1 then [.persist (.sample "other" 2), .readItems "other" 3 5] else []
        limit := fun n => if n = 0 then 2 else 1 }
    ∃ pages, w.Shows o pages ∧ pages.length ≤ 3 := by
  intro o s w
  have hstored : s.desk.store.shelf.find? o.uid = some o := by decide +kernel
  have hwalkable : s.Walkable o := ⟨hstored, fun c hc => absurd hc nofun, rfl⟩
  have hlimit : ∀ n, 0 < w.limit n := by
    intro n
    simp only [w]
    split <;> decide
  have hbetween : ∀ n, ∀ c ∈ w.between n, ¬ c.Concerns w.uid := by
    intro n c hc
    have huid : "other" ≠ w.uid := by decide +kernel
    simp only [w] at hc
    split at hc
    · rcases List.mem_pair.1 hc with rfl | rfl <;> exact huid
    · cases hc
  obtain ⟨pages, hshows, hlength, -⟩ := undisturbed_walk_complete .standard false false
    [.persist (.sample "b563feb7b2b84b6test" 3), .clearCache] rfl (by decide +kernel) o hwalkable w
    rfl rfl (Walk.undisturbed_of_not_concerns hlimit hbetween)
  exact ⟨pages, hshows, hlength⟩

end Service

end OrderDesk
