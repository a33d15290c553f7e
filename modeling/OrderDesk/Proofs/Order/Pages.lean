import Mathlib.Data.List.Infix
import OrderDesk.Order.Page

/-!
Pages of items in ascending order. Both ways to cut a page agree there, a page is a block of the
items, and a block of the items serves a page exactly if the page lies within it.
-/

namespace OrderDesk.Page

variable {xs before block after : List Item} {last limit : Int64}

def Ascending (xs : List Item) : Prop := xs.Pairwise fun x y => x.id < y.id

def beyond (last : Int64) (xs : List Item) : List Item := xs.filter fun x => last < x.id

theorem select_eq (xs : List Item) (last limit : Int64) :
    select xs last limit = (beyond last xs).take (allowed limit) := rfl

theorem beyond_append (last : Int64) (xs ys : List Item) :
    beyond last (xs ++ ys) = beyond last xs ++ beyond last ys := List.filter_append ..

theorem beyond_eq_nil_iff : beyond last xs = [] ↔ ∀ x ∈ xs, x.id ≤ last := by
  simp [beyond, List.filter_eq_nil_iff]

theorem beyond_eq_self (h : ∀ x ∈ xs, last < x.id) : beyond last xs = xs :=
  List.filter_eq_self.2 fun x hx => decide_eq_true (h x hx)

theorem allowed_pos (h : 0 < limit) : 0 < allowed limit := by
  have hz : (0 : Int64).toInt = 0 := rfl
  have hi := Int64.lt_iff_toInt_lt.1 h
  simp only [allowed]
  omega

theorem Ascending.of_block (h : Ascending xs) (hb : block <:+: xs) : Ascending block :=
  h.sublist hb.sublist

theorem dropWhile_eq_beyond (h : Ascending xs) :
    (xs.dropWhile fun x => x.id ≤ last) = beyond last xs := by
  induction xs with
  | nil => rfl
  | cons x xs ih =>
    obtain ⟨hx, h⟩ := List.pairwise_cons.1 h
    by_cases hl : x.id ≤ last
    · have hn : ¬ last < x.id := Int64.not_lt.2 hl
      simpa [beyond, hl, hn] using ih h
    · have hlt : last < x.id := Int64.not_le.1 hl
      rw [List.dropWhile_cons_of_neg (by simpa using hl), beyond_eq_self]
      intro y hy
      rcases List.mem_cons.1 hy with rfl | hy
      · exact hlt
      · exact Int64.lt_trans hlt (hx y hy)

theorem slice_eq_select (h : Ascending xs) (last limit : Int64) :
    slice xs last limit = select xs last limit := by
  rw [slice, dropWhile_eq_beyond h, select_eq]

theorem block_select (h : Ascending xs) (last limit : Int64) : select xs last limit <:+: xs := by
  rw [← slice_eq_select h]
  exact (List.take_prefix ..).isInfix.trans (List.dropWhile_suffix _).isInfix

structure IsPage (page xs : List Item) (last limit : Int64) : Prop where
  block : page <:+: xs
  ascending : Ascending page
  beyond : ∀ x ∈ page, last < x.id
  within : page.length ≤ allowed limit
  empty : limit ≤ 0 → page = []

theorem allowed_eq_zero (h : limit ≤ 0) : allowed limit = 0 := by
  have hz : (0 : Int64).toInt = 0 := rfl
  have hi := Int64.le_iff_toInt_le.1 h
  simp only [allowed]
  omega

theorem isPage_select (h : Ascending xs) (last limit : Int64) :
    IsPage (select xs last limit) xs last limit where
  block := block_select h last limit
  ascending := h.of_block (block_select h last limit)
  beyond x hx := by
    rw [select_eq] at hx
    simpa using (List.mem_filter.1 (List.mem_of_mem_take hx)).2
  within := length_select_le xs last limit
  empty hl := by rw [select_eq, allowed_eq_zero hl, List.take_zero]

theorem IsPage.of_block {page : List Item} (h : IsPage page block last limit)
    (hb : block <:+: xs) : IsPage page xs last limit := { h with block := h.block.trans hb }

theorem select_eq_nil_iff (hl : 0 < limit) :
    select xs last limit = [] ↔ ∀ x ∈ xs, x.id ≤ last := by
  rw [select_eq, List.take_eq_nil_iff, beyond_eq_nil_iff]
  simp only [(allowed_pos hl).ne', false_or]

theorem beyond_after (h : Ascending (block ++ after)) (hb : ∃ x ∈ block, last < x.id) :
    beyond last after = after := by
  obtain ⟨x, hx, hlt⟩ := hb
  refine beyond_eq_self fun y hy => Int64.lt_trans hlt ?_
  exact (List.pairwise_append.1 h).2.2 x hx y hy

/-- Whether a block of the items serves a page as all the items would: it holds nothing beyond the
cursor, so that it is not asked, or nothing beyond the cursor comes before it and the page ends within
it. -/
def Serves (block xs : List Item) (last limit : Int64) : Prop :=
  (∀ x ∈ block, x.id ≤ last) ∨
    ∃ before after, xs = before ++ block ++ after ∧ (∀ x ∈ before, x.id ≤ last) ∧
      (after = [] ∨ allowed limit ≤ (beyond last block).length)

theorem take_ne_take_append {xs ys zs : List Item} {n : Nat} (hn : 0 < n) (hx : xs ≠ [])
    (hy : ys ≠ []) (h : ∀ x ∈ xs, ∀ y ∈ ys, x.id < y.id) : ys.take n ≠ (xs ++ zs).take n := by
  obtain ⟨n, rfl⟩ := Nat.exists_eq_succ_of_ne_zero hn.ne'
  obtain ⟨x, xs, rfl⟩ := List.exists_cons_of_ne_nil hx
  obtain ⟨y, ys, rfl⟩ := List.exists_cons_of_ne_nil hy
  intro he
  have hxy : x.id < y.id := h x (by simp) y (by simp)
  have hhead : y = x := by simpa using congrArg List.head? he
  rw [hhead] at hxy
  exact Int64.lt_irrefl hxy

theorem take_eq_take_append_iff {ys zs : List Item} {n : Nat} :
    ys.take n = (ys ++ zs).take n ↔ zs = [] ∨ n ≤ ys.length := by
  rw [List.take_append, List.self_eq_append_right, List.take_eq_nil_iff, Nat.sub_eq_zero_iff_le]
  exact or_comm

theorem select_block_iff (h : Ascending (before ++ block ++ after)) (hl : 0 < limit)
    (hb : ∃ x ∈ block, last < x.id) :
    select block last limit = select (before ++ block ++ after) last limit ↔
      (∀ x ∈ before, x.id ≤ last) ∧ (after = [] ∨ allowed limit ≤ (beyond last block).length) := by
  have hsplit : Ascending (block ++ after) := by
    rw [List.append_assoc] at h
    exact (List.pairwise_append.1 h).2.1
  have hcross : ∀ x ∈ before, ∀ y ∈ block, x.id < y.id :=
    (List.pairwise_append.1 (List.pairwise_append.1 h).1).2.2
  have hne : beyond last block ≠ [] := by
    rw [Ne, beyond_eq_nil_iff]
    obtain ⟨x, hx, hlt⟩ := hb
    exact fun hall => Int64.not_lt.2 (hall x hx) hlt
  simp only [select_eq, beyond_append, beyond_after hsplit hb, List.append_assoc]
  by_cases hbefore : beyond last before = []
  -- both pages start in the block and differ, if at all, in what follows it
  · have hall := beyond_eq_nil_iff.1 hbefore
    rw [hbefore, List.nil_append, and_iff_right hall]
    exact take_eq_take_append_iff
  -- the page of all the items starts before the block
  · have hall : ¬ ∀ x ∈ before, x.id ≤ last := fun h => hbefore (beyond_eq_nil_iff.2 h)
    simp only [hall, false_and, iff_false]
    refine take_ne_take_append (allowed_pos hl) hbefore hne fun x hx y hy => ?_
    exact hcross x (List.mem_of_mem_filter hx) y (List.mem_of_mem_filter hy)

theorem serves_iff (h : Ascending xs) (hb : block <:+: xs) (hl : 0 < limit) :
    Serves block xs last limit ↔
      select block last limit = [] ∨ select block last limit = select xs last limit := by
  unfold Serves
  rw [select_eq_nil_iff hl]
  refine or_congr_right' fun hnone => ?_
  have hsome : ∃ x ∈ block, last < x.id := by
    obtain ⟨x, hx, hlt⟩ : ∃ x ∈ block, ¬ x.id ≤ last := by simpa using hnone
    exact ⟨x, hx, Int64.not_le.1 hlt⟩
  constructor
  · rintro ⟨before, after, rfl, hserves⟩
    exact (select_block_iff h hl hsome).2 hserves
  · intro he
    obtain ⟨before, after, rfl⟩ := hb
    exact ⟨before, after, rfl, (select_block_iff h hl hsome).1 he⟩

/-! ## Cursors -/

def cursorAfter (last : Int64) (page : List Item) : Int64 := (page.getLast?.map Item.id).getD last

theorem beyond_cursorAfter {page rest : List Item} (h : Ascending xs) (hp : beyond last xs = page ++ rest) :
    beyond (cursorAfter last page) xs = rest := by
  rcases page.eq_nil_or_concat' with rfl | ⟨init, y, rfl⟩
  · exact hp
  · have hcursor : cursorAfter last (init ++ [y]) = y.id := by simp [cursorAfter]
    have hall : Ascending (init ++ [y] ++ rest) := by
      have hsub : Ascending (beyond last xs) := h.sublist List.filter_sublist
      rwa [hp] at hsub
    obtain ⟨hfirst, -, hcross⟩ := List.pairwise_append.1 hall
    have hlast : last < y.id := by
      have hy : y ∈ beyond last xs := hp ▸ by simp
      simpa using (List.mem_filter.1 hy).2
    have hagain : beyond y.id xs = beyond y.id (beyond last xs) := by
      simp only [beyond, List.filter_filter]
      refine List.filter_congr fun x _ => ?_
      by_cases hx : y.id < x.id
      · simp [hx, Int64.lt_trans hlast hx]
      · simp [hx]
    have hseen : beyond y.id (init ++ [y]) = [] := by
      refine beyond_eq_nil_iff.2 (List.forall_mem_append.2 ⟨fun x hx => ?_, by simp⟩)
      exact Int64.le_of_lt ((List.pairwise_append.1 hfirst).2.2 x hx y (by simp))
    have hnew : beyond y.id rest = rest := beyond_eq_self (hcross y (by simp))
    rw [hcursor, hagain, hp, beyond_append, hseen, hnew, List.nil_append]

theorem exists_pages_beyond {cursor : Nat → Int64} {page : Nat → List Item}
    (hstep : ∀ n, beyond (cursor n) xs = page n ++ beyond (cursor (n + 1)) xs)
    (hend : ∀ n, page n = [] → beyond (cursor n) xs = []) :
    ∃ pages : List (List Item), pages.flatten = beyond (cursor 0) xs ∧
      (∀ n p, pages[n]? = some p → page n = p ∧ p ≠ []) ∧ page pages.length = [] := by
  -- each page that is not empty leaves fewer items
  generalize hrest : (beyond (cursor 0) xs).length = rest
  induction rest using Nat.strong_induction_on generalizing cursor page with
  | h rest ih =>
    by_cases hempty : page 0 = []
    · exact ⟨[], (hend 0 hempty).symm, nofun, hempty⟩
    · have hfewer : (beyond (cursor 1) xs).length < rest := by
        have hlength := congrArg List.length (hstep 0)
        have hpos := List.length_pos_of_ne_nil hempty
        rw [List.length_append, hrest, Nat.zero_add] at hlength
        omega
      obtain ⟨pages, hall, hpages, hlast⟩ :=
        ih _ hfewer (fun n => hstep (n + 1)) (fun n => hend (n + 1)) rfl
      refine ⟨page 0 :: pages, ?_, ?_, hlast⟩
      · rw [List.flatten_cons, hall]
        exact (hstep 0).symm
      · rintro (_ | n) p hp
        · obtain rfl : page 0 = p := Option.some.inj hp
          exact ⟨rfl, hempty⟩
        · exact hpages n p hp

end OrderDesk.Page
