import Mathlib.Data.List.Pairwise
import Mathlib.Data.List.Range
import OrderDesk.Order.Sample
import OrderDesk.Proofs.Desk.Contents
import OrderDesk.Proofs.Desk.Versions

/-!
Sessions of writes to a store, some of which fail. The numbers handed out count up from one through
the whole session, so no two versions of orders share one, and a write changes a single order.
-/

namespace OrderDesk.Store

inductive Entry where
  | upsert (o : Order)
  | fail (e : OrderError) (times : Nat)

def session (s : Store) : List Entry → List (Except OrderError Order) × Store
  | [] => ([], s)
  | .upsert o :: es =>
    let r := s.upsert o
    let rest := r.2.session es
    (r.1 :: rest.1, rest.2)
  | .fail e times :: es => (s.failUpserts e times).session es

def handedOut (answers : List (Except OrderError Order)) : List Order :=
  answers.filterMap Except.toOption

variable {s t : Store} {o v : Order} {e : OrderError} {given : Nat}

/-! ## Numbers -/

theorem map_id_numbered (given : Nat) (xs : List Item) :
    (numbered given xs).map Item.id = (List.range' (given + 1) xs.length).map Int64.ofNat := by
  induction xs generalizing given with
  | nil => rfl
  | cons x xs ih =>
    rw [List.length_cons, List.range'_succ, List.map_cons, ← ih (given + 1)]
    rfl

theorem flatMap_id_versions (given : Nat) (os : List Order) :
    (versions given os).flatMap (fun v => v.items.map Item.id) =
      (List.range' (given + 1) (os.flatMap Order.items).length).map Int64.ofNat := by
  induction os generalizing given with
  | nil => rfl
  | cons o os ih =>
    have hfirst : (stored given o).items.map Item.id =
        (List.range' (given + 1) o.items.length).map Int64.ofNat := map_id_numbered given o.items
    have hnext : given + 1 + o.items.length = given + o.items.length + 1 := by omega
    rw [versions, List.flatMap_cons, hfirst, ih, List.flatMap_cons, List.length_append,
      ← List.map_append, ← List.range'_append_1, hnext]

theorem pairwise_ofNat_range' {n : Nat} (h : given + n < 2 ^ 63) :
    ((List.range' (given + 1) n).map Int64.ofNat).Pairwise (· < ·) := by
  have hrange : (List.range' (given + 1) n).Pairwise (· < ·) := List.pairwise_lt_range'
  rw [List.pairwise_map]
  apply hrange.imp_of_mem
  intro j k _ hk hjk
  have hbound : k < given + 1 + n := (List.mem_range'_1.1 hk).2
  exact ofNat_lt_ofNat hjk (by omega)

/-! ## Single writes -/

theorem upsert_cases (s : Store) (o : Order) :
    (∃ e rest, s.upsertFailures = e :: rest ∧
      s.upsert o =
        (.error e, { s with upsertFailures := rest, upsertCalls := s.upsertCalls + 1 })) ∨
      s.upsertFailures = [] ∧
        s.upsert o = (.ok (stored s.given o),
          { s with
            shelf := s.shelf.insert (stored s.given o)
            given := s.given + o.items.length
            upsertCalls := s.upsertCalls + 1 }) := by
  cases hf : s.upsertFailures with
  | cons e rest => exact .inl ⟨e, rest, rfl, by simp only [upsert, hf]⟩
  | nil => exact .inr ⟨rfl, by simp only [upsert, hf]⟩

structure Replaces (s : Store) (o v : Order) (t : Store) : Prop where
  found : t.shelf.find? o.uid = some v
  same : v.unnumbered =
    { o with payment := { o.payment with transaction := o.uid } : Order }.unnumbered
  others : ∀ uid, uid ≠ o.uid → t.shelf.find? uid = s.shelf.find? uid
  rest : t = { s with
    shelf := t.shelf, given := s.given + o.items.length, upsertCalls := s.upsertCalls + 1 }

theorem replaces_stored (s : Store) (o : Order) :
    Replaces s o (stored s.given o)
      { s with
        shelf := s.shelf.insert (stored s.given o)
        given := s.given + o.items.length
        upsertCalls := s.upsertCalls + 1 } where
  found := by
    have hfind := s.shelf.find?_insert (stored s.given o) o.uid
    exact hfind.trans (if_pos rfl)
  same := by
    have hitems := unnumbered_numbered s.given o.items
    simp only [Order.unnumbered, stored, hitems]
  others uid hne := by
    have hfind := s.shelf.find?_insert (stored s.given o) uid
    exact hfind.trans (if_neg (Ne.symm hne))
  rest := rfl

theorem exists_rest_of_upsert_error (h : (s.upsert o).1 = .error e) :
    ∃ rest, s.upsertFailures = e :: rest ∧
      (s.upsert o).2 = { s with upsertFailures := rest, upsertCalls := s.upsertCalls + 1 } := by
  rcases s.upsert_cases o with ⟨f, rest, hf, he⟩ | ⟨-, he⟩ <;> rw [he] at h ⊢
  · injection h with hfe
    exact ⟨rest, hfe ▸ hf, rfl⟩
  · cases h

theorem replaces_of_upsert_ok (h : (s.upsert o).1 = .ok v) :
    Replaces s o v (s.upsert o).2 ∧ s.upsertFailures = [] := by
  rcases s.upsert_cases o with ⟨f, rest, -, he⟩ | ⟨hf, he⟩ <;> rw [he] at h ⊢
  · cases h
  · injection h with hv
    exact ⟨hv ▸ s.replaces_stored o, hf⟩

theorem Replaces.exists_again (h : Replaces s o v t) (hs : s.upsertFailures = []) :
    ∃ u, (t.upsert o).1 = .ok u ∧ u.unnumbered = v.unnumbered ∧
      Replaces t o u (t.upsert o).2 := by
  have hnone : t.upsertFailures = [] := by
    rw [h.rest]
    exact hs
  rcases t.upsert_cases o with ⟨f, rest, hf, -⟩ | ⟨-, he⟩
  · rw [hnone] at hf
    cases hf
  · have hagain := t.replaces_stored o
    rw [he]
    exact ⟨_, rfl, hagain.same.trans h.same.symm, hagain⟩

/-! ## Sessions -/

theorem exists_versions (s : Store) (es : List Entry) :
    ∃ os, handedOut (s.session es).1 = versions s.given os ∧
      (s.session es).2.given = givenAfter s.given os ∧
      (s.session es).2.shelf = (versions s.given os).foldl Shelf.insert s.shelf := by
  induction es generalizing s with
  | nil => exact ⟨[], rfl, rfl, rfl⟩
  | cons entry es ih =>
    cases entry with
    | fail e times => exact ih (s.failUpserts e times)
    | upsert o =>
      have hsession : s.session (.upsert o :: es) =
          ((s.upsert o).1 :: ((s.upsert o).2.session es).1, ((s.upsert o).2.session es).2) := rfl
      obtain ⟨os, hversions, hgiven, hshelf⟩ := ih (s.upsert o).2
      rcases s.upsert_cases o with ⟨e, rest, -, he⟩ | ⟨-, he⟩ <;>
        rw [he] at hsession hversions hgiven hshelf <;> rw [hsession]
      -- a failure hands out nothing, and what follows starts from the same orders
      · exact ⟨os, hversions, hgiven, hshelf⟩
      · refine ⟨o :: os, ?_, ?_, hshelf⟩
        · exact congrArg (stored s.given o :: ·) hversions
        · exact hgiven.trans (givenAfter_cons s.given o os).symm

structure Orderly (answers : List (Except OrderError Order)) (s : Store) : Prop where
  /-- The numbers handed out go up through the whole session, and none is left out. -/
  counted : (handedOut answers).flatMap (fun v => v.items.map Item.id) =
    (List.range' 1 s.given).map Int64.ofNat
  increasing : ((handedOut answers).flatMap fun v => v.items.map Item.id).Pairwise (· < ·)
  /-- An order is stored in the last version handed out. -/
  latest : ∀ uid, s.shelf.find? uid = Order.latest (handedOut answers) uid
  ascending : ∀ v ∈ s.shelf.orders, Page.Ascending v.items
  versions : (handedOut answers).Pairwise fun u v => ∀ x ∈ u.items, ∀ y ∈ v.items, x.id ≠ y.id
  orders : ∀ u ∈ s.shelf.orders, ∀ v ∈ s.shelf.orders, u.uid ≠ v.uid →
    ∀ x ∈ u.items, ∀ y ∈ v.items, x.id ≠ y.id
  /-- A write fails if a failure is queued, which it takes, and does nothing else. -/
  fails : ∀ o e, (s.upsert o).1 = .error e ↔ s.upsertFailures.head? = some e
  failed : ∀ o e, (s.upsert o).1 = .error e → (s.upsert o).2 =
    { s with upsertFailures := s.upsertFailures.tail, upsertCalls := s.upsertCalls + 1 }
  replaces : ∀ o v, (s.upsert o).1 = .ok v → Replaces s o v (s.upsert o).2
  again : ∀ o v, (s.upsert o).1 = .ok v → ∃ u, ((s.upsert o).2.upsert o).1 = .ok u ∧
    u.unnumbered = v.unnumbered ∧ Replaces (s.upsert o).2 o u ((s.upsert o).2.upsert o).2

theorem upsert_error_iff : (s.upsert o).1 = .error e ↔ s.upsertFailures.head? = some e := by
  rcases s.upsert_cases o with ⟨f, rest, hf, he⟩ | ⟨hf, he⟩ <;> rw [he, hf] <;> simp

theorem session_orderly (es : List Entry) (hn : (empty.session es).2.given < 2 ^ 63) :
    Orderly (empty.session es).1 (empty.session es).2 := by
  obtain ⟨os, hversions, hgiven, hshelf⟩ := empty.exists_versions es
  have hzero : empty.given = 0 := rfl
  rw [hzero] at hversions hgiven hshelf
  have hbound : givenAfter 0 os < 2 ^ 63 := hgiven ▸ hn
  have hcount : (os.flatMap Order.items).length = (empty.session es).2.given := by
    rw [hgiven, givenAfter, Nat.zero_add]
  have hids := flatMap_id_versions 0 os
  rw [← hversions, hcount] at hids
  have hlatest : ∀ uid, (empty.session es).2.shelf.find? uid =
      Order.latest (handedOut (empty.session es).1) uid := by
    intro uid
    have hnothing : empty.shelf.find? uid = none := rfl
    rw [hshelf, Shelf.find?_foldl_insert, hnothing, Option.or_none, hversions]
  have hmem : ∀ v ∈ (empty.session es).2.shelf.orders, v ∈ versions 0 os := by
    intro v hv
    have hfound := (hlatest v.uid).symm.trans (Shelf.find?_of_mem hv)
    obtain ⟨-, before, after, hsplit, -⟩ := Order.exists_eq_append_of_latest hfound
    rw [← hversions, hsplit]
    simp
  -- numbers go up through the session, so no two versions share one
  have happart : (versions 0 os).Pairwise fun u v =>
      ∀ x ∈ u.items, ∀ y ∈ v.items, x.id ≠ y.id := by
    apply (pairwise_versions hbound).imp
    intro u v huv x hx y hy
    exact Int64.ne_of_lt (huv x hx y hy)
  constructor
  case counted => exact hids
  case increasing =>
    rw [hids]
    exact pairwise_ofNat_range' (by omega)
  case latest => exact hlatest
  case ascending =>
    intro v hv
    exact (numbered_of_mem_versions (hmem v hv)).ascending hbound
  case versions => exact hversions ▸ happart
  case orders =>
    intro u hu v hv hne x hx y hy
    have : Std.Symm fun u v : Order => ∀ x ∈ u.items, ∀ y ∈ v.items, x.id ≠ y.id :=
      ⟨fun u v huv x hx y hy he => huv y hy x hx he.symm⟩
    have huv : u ≠ v := fun he => hne (congrArg Order.uid he)
    exact happart.forall (hmem u hu) (hmem v hv) huv x hx y hy
  case fails => exact fun o e => upsert_error_iff
  case failed =>
    intro o e he
    obtain ⟨rest, hf, hafter⟩ := exists_rest_of_upsert_error he
    rw [hafter, hf, List.tail_cons]
  case replaces => exact fun o v hv => (replaces_of_upsert_ok hv).1
  case again =>
    intro o v hv
    obtain ⟨hreplaces, hnone⟩ := replaces_of_upsert_ok hv
    exact hreplaces.exists_again hnone

theorem session_sample :
    let a := Order.sample "b563feb7b2b84b6test" 2
    let b := Order.sample "other" 1
    let es := [.upsert a, .fail (.storage "down") 1, .upsert a, .upsert b, .upsert a]
    let s := (empty.session es).2
    s.given < 2 ^ 63 ∧
      (handedOut (empty.session es).1).flatMap (fun v => v.items.map Item.id) = [1, 2, 3, 4, 5] ∧
      (s.shelf.find? a.uid).map (fun v => v.items.map Item.id) = some [4, 5] ∧
      Orderly (empty.session es).1 s := by
  intro a b es s
  have hn : s.given < 2 ^ 63 := by decide +kernel
  have horderly := session_orderly es hn
  have hgiven : s.given = 5 := by decide +kernel
  have hids := horderly.counted
  rw [hgiven] at hids
  exact ⟨hn, hids, by decide +kernel, horderly⟩

end OrderDesk.Store
